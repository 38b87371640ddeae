import AgentHub.Context.Admitted

/-!
# The budget of an admission

An admission that returns accounts for every token: the estimate of what it admits is the estimate
it reports, the sum over the categories it reports, and within the available input. Mandatory
messages are admitted unchanged, the pools keep their caps, and the newest conversation exchange is
admitted whole. The check after projection never fails.

## Main definitions

* `BudgetSound`: the account of an admission

## Main results

* `Selects.after_le`: what is selected is within the available input
* `admission_budget_sound`: every admission that returns is sound, and none fails after projection
-/

namespace AgentHub.Context

open Lib Transcript

variable {G : Type} {policy : ContextBudgetPolicy} {messages : List (ContextMessage G)}
  {tools : List ModelToolDefinition} {payloads : List (ℕ × MemoryPayload)} {s : Selection G}

/-! ## Sums over categories -/

/-- Every item is in one category. -/
theorem sum_ofCategory (items : List (NormalizedMessage G)) (w : NormalizedMessage G → ℕ) :
    (ContextCategory.all.map fun category => ((ofCategory items category).map w).sum).sum =
      (items.map w).sum := by
  induction items with
  | nil => rfl
  | cons item items ih =>
    rw [List.map_cons, List.sum_cons, ← ih]
    simp only [ContextCategory.all, List.map_cons, List.map_nil, List.sum_cons, List.sum_nil,
      ofCategory, List.filter_cons]
    cases item.category <;> simp <;> omega

theorem sum_byCategory (tools overhead : ℕ) (items : List (NormalizedMessage G))
    (w : NormalizedMessage G → ℕ) :
    (ContextCategory.all.map (byCategory tools overhead items w)).sum =
      tools + overhead + (items.map w).sum := by
  rw [← sum_ofCategory items w]
  simp only [ContextCategory.all, byCategory, List.map_cons, List.map_nil, List.sum_cons,
    List.sum_nil, if_true, reduceCtorEq, if_false]
  omega

/-! ## The selection -/

section Selection

variable [DecidableEq G] (h : Selects policy messages tools payloads s)

include h

/-- Mandatory items count as much after the pools as before. -/
theorem Selects.mandatory_tokens :
    ((s.projected.filter fun p => p.category.isMandatory).map
      NormalizedMessage.admittedTokens).sum =
      ((s.rawItems.filter fun r => r.category.isMandatory).map NormalizedMessage.rawTokens).sum := by
  have hfilter : List.Forall₂ (Placed policy)
      (s.rawItems.filter fun r => r.category.isMandatory)
      (s.projected.filter fun p => p.category.isMandatory) :=
    Pairing.filter (fun r p hrp => by rw [hrp.category]) h.placed
  have hmandatory := (List.forall₂_and_left _ _).mpr
    ⟨fun r hr => (List.mem_filter.mp hr).2, hfilter⟩
  refine congrArg List.sum (Pairing.map_eq_map (fun r p hrp => ?_) hmandatory).symm
  exact (hrp.2.whole (Selects.not_projectable_of_mandatory hrp.1)).2.symm

/-- **What is selected is within the available input.** -/
theorem Selects.after_le : s.estimatedInputAfter ≤ s.availableInput := by
  have hselected := sum_selected_le h.pairwise_projected h.selected
  have hmandatory := h.mandatory
  rw [h.mandatory_tokens] at hselected
  unfold Selection.estimatedInputAfter
  unfold Selection.mandatoryTotal at hmandatory hselected
  omega

/-- An admitted item is estimated at its tokens. -/
theorem Selects.admitted_estimate :
    ∀ a ∈ s.admitted, ∃ m, a.admittedMessage = some m ∧
      estimateMessage policy m = .ok a.admittedTokens := by
  intro a ha
  obtain ⟨hmem, hsome⟩ := List.mem_filter.mp ha
  obtain ⟨m, hm⟩ := Option.isSome_iff_exists.mp hsome
  have hprojected : a ∈ s.projected :=
    h.selected_sublist.mem ((List.perm_insertionSort _ _).mem_iff.mp hmem)
  obtain ⟨r, -, hra⟩ := Pairing.exists_left h.placed hprojected
  exact ⟨m, hm, hra.estimate m hm⟩

end Selection

variable {items : List (NormalizedMessage G)}

theorem map_some_filterMap (h : ∀ a ∈ items, ∃ m, a.admittedMessage = some m) :
    (items.filterMap NormalizedMessage.admittedMessage).map some =
      items.map NormalizedMessage.admittedMessage := by
  induction items with
  | nil => rfl
  | cons a items ih =>
    obtain ⟨m, hm⟩ := h a (by simp)
    rw [List.filterMap_cons_some hm, List.map_cons, List.map_cons, hm,
      ih fun b hb => h b (by simp [hb])]

/-- The admitted messages have the estimates of their items. -/
theorem mapM_estimate
    (h : ∀ a ∈ items, ∃ m, a.admittedMessage = some m ∧
      estimateMessage policy m = .ok a.admittedTokens) :
    (items.filterMap NormalizedMessage.admittedMessage).mapM (estimateMessage policy) =
      .ok (items.map NormalizedMessage.admittedTokens) := by
  rw [mapM_eq_ok_iff]
  induction items with
  | nil => exact .nil
  | cons a items ih =>
    obtain ⟨m, hm, hestimate⟩ := h a (by simp)
    rw [List.filterMap_cons_some hm, List.map_cons]
    exact .cons hestimate (ih fun b hb => h b (by simp [hb]))

/-! ## Soundness -/

/-- The account of an admission: `s.admitted` are the items whose messages the result has. -/
structure BudgetSound [DecidableEq G] (policy : ContextBudgetPolicy)
    (messages : List (ContextMessage G)) (tools : List ModelToolDefinition) (s : Selection G)
    (result : ContextAdmissionResult) : Prop where
  /-- The messages are those of the admitted items, in their order and with their categories. -/
  contents : result.messages.map some = s.admitted.map NormalizedMessage.admittedMessage
  categories : result.messageCategories = s.admitted.map NormalizedMessage.category
  /-- The order of the input is kept. -/
  order : (s.admitted.map NormalizedMessage.source).Sublist messages.zipIdx
  /-- The estimates of messages and tools. -/
  estimates : result.messages.mapM (estimateMessage policy) =
    .ok (s.admitted.map NormalizedMessage.admittedTokens)
  toolEstimates : tools.mapM (estimateTool policy) = .ok s.toolEstimates
  total : (s.admitted.map NormalizedMessage.admittedTokens).sum +
    (s.toolEstimates.map ToolEstimate.total).sum +
      protocolOverhead policy Counter.requestOverheadTokens = result.usage.estimatedInputAfter
  retained : (ContextCategory.all.map result.usage.retainedByCategory).sum =
    result.usage.estimatedInputAfter
  /-- The available input is that of the policy, and the estimate is within it. -/
  available : ∃ limit reserved, effectiveContextLimit policy = .ok limit ∧
    effectiveReservedOutput policy = .ok reserved ∧
    availableInput policy limit reserved = .ok result.usage.availableInput
  within : result.usage.estimatedInputAfter ≤ result.usage.availableInput
  /-- Every mandatory message is admitted, and unchanged. -/
  mandatory : ∀ p ∈ messages.zipIdx, p.1.category.isMandatory →
    ∃ a ∈ s.admitted, a.source = p ∧ a.admittedMessage = some p.1.message
  /-- The pools keep their caps. -/
  pools : WithinPools policy.config s.admitted
  /-- The newest conversation exchange is admitted whole. -/
  newest : ∀ key, NewestConversation messages key → AdmittedExchange messages s key

section Sound

variable [DecidableEq G]

theorem Selects.mandatory_mem (h : Selects policy messages tools payloads s) :
    ∀ p ∈ messages.zipIdx, p.1.category.isMandatory →
      ∃ a ∈ s.admitted, a.source = p ∧ a.admittedMessage = some p.1.message := by
  intro p hp hmandatory
  rw [← h.sources] at hp
  obtain ⟨a, ha, rfl⟩ := List.mem_map.mp hp
  refine ⟨a, h.mem_admitted_iff.mpr ⟨ha, Or.inl hmandatory⟩, rfl, ?_⟩
  exact (h.mandatory_admitted a ha (Selects.not_projectable_of_mandatory hmandatory)).1

omit [DecidableEq G] in
theorem WithinPools.sublist {config : ContextBudgetConfig} {l r : List (NormalizedMessage G)}
    (hlr : l.Sublist r) (h : WithinPools config r) : WithinPools config l := by
  have hle (category : ContextCategory) :
      categoryTokens l category ≤ categoryTokens r category :=
    ((hlr.filter _).map _).sum_le_sum fun _ _ => Nat.zero_le _
  refine ⟨fun hnone => ?_, fun cap hcap => ?_, (hle _).trans h.evidence, (hle _).trans h.results⟩
  · exact (Nat.add_le_add (hle _) (hle _)).trans (h.shared hnone)
  · exact (hle _).trans (h.memory cap hcap)

theorem Selects.withinPools (h : Selects policy messages tools payloads s) :
    WithinPools policy.config s.admitted := by
  rw [h.admitted_eq_selected]
  refine WithinPools.sublist h.selected_sublist ?_
  exact projectOptionalItems_within
    (Selects.nodup_index (Selects.pairwise_of_sources h.raw_sources)) h.raw_estimate h.projected

theorem Selects.newest_admitted (h : Selects policy messages tools payloads s)
    {key : GroupKey G} (hnewest : NewestConversation messages key) :
    AdmittedExchange messages s key := by
  obtain ⟨p, hp, hcategory⟩ := hnewest.conversation
  obtain ⟨g, hg, rfl⟩ := h.exists_exchange (List.ne_nil_of_mem hp)
  obtain ⟨hcheck, -, -⟩ := selectItems_eq_ok.mp h.selected
  rw [h.exchange_admitted hg]
  refine newest_selected h.pairwise_projected hcheck hg
    ((h.isConversation_iff hg).mpr hnewest.conversation) fun g' hg' hconversation => ?_
  rw [h.firstIndex_eq hg', h.firstIndex_eq hg]
  exact hnewest.newest g'.key ((h.isConversation_iff hg').mp hconversation)

end Sound

/-! ## Errors -/

theorem passing_ne {α : Type} (x : Except PythonError α) :
    passing x ≠ .error exceededAfterProjection := by
  cases x <;> simp [passing, Except.mapError, exceededAfterProjection]

theorem effectiveContextLimit_ne :
    effectiveContextLimit policy ≠ .error exceededAfterProjection := by
  unfold effectiveContextLimit
  split
  · simp
  · refine bind_ne_error (raiseIf_ne_error fun _ => by simp [exceededAfterProjection]) fun _ _ => ?_
    refine bind_ne_error (mapM_ne_error fun profile => ?_) fun _ _ => by simp
    unfold profileContextLimit
    split
    · simp [exceededAfterProjection]
    · exact bind_ne_error (raiseIf_ne_error fun _ => by simp [exceededAfterProjection])
        fun _ _ => by simp

theorem effectiveReservedOutput_ne :
    effectiveReservedOutput policy ≠ .error exceededAfterProjection := by
  unfold effectiveReservedOutput
  split
  · simp
  · refine bind_ne_error (mapM_ne_error fun profile => ?_) fun _ _ => ?_
    · unfold profileMaxTokens
      split
      · exact bind_ne_error (raiseIf_ne_error fun _ => by simp [exceededAfterProjection])
          fun _ _ => by simp
      · simp [exceededAfterProjection]
    · refine bind_ne_error effectiveContextLimit_ne fun _ _ => ?_
      exact bind_ne_error (raiseIf_ne_error fun _ => by
        simp [reservedOutputTooLarge, exceededAfterProjection]) fun _ _ => by simp

theorem availableInput_ne (limit : Option ℕ) (reserved : ℕ) :
    availableInput policy limit reserved ≠ .error exceededAfterProjection := by
  unfold availableInput
  split
  · simp
  · split_ifs <;> simp [reservedOutputTooLarge, exceededAfterProjection]
  · simp [reservedOutputTooLarge, exceededAfterProjection]

section Errors

variable [DecidableEq G]

theorem selectItems_ne (items : List (NormalizedMessage G)) (mandatoryTotal available : ℕ) :
    selectItems items mandatoryTotal available ≠ .error exceededAfterProjection := by
  refine bind_ne_error ?_ fun _ _ => by simp
  unfold checkNewest
  split
  · simp
  · refine bind_ne_error (raiseIf_ne_error fun _ => by simp [exceededAfterProjection]) fun _ _ => ?_
    exact raiseIf_ne_error fun _ => by simp [exceededAfterProjection]

theorem selectContext_ne (messages : List (ContextMessage G)) (tools : List ModelToolDefinition)
    (payloads : List (ℕ × MemoryPayload)) :
    selectContext policy messages tools payloads ≠ .error exceededAfterProjection := by
  refine bind_ne_error effectiveContextLimit_ne fun limit _ => ?_
  refine bind_ne_error effectiveReservedOutput_ne fun reserved _ => ?_
  refine bind_ne_error (availableInput_ne limit reserved) fun available _ => ?_
  refine bind_ne_error (passing_ne _) fun estimates _ => bind_ne_error (passing_ne _) fun raw _ => ?_
  refine bind_ne_error (raiseIf_ne_error fun _ => by simp [exceededAfterProjection]) fun _ _ => ?_
  refine bind_ne_error (passing_ne _) fun projected _ => ?_
  exact bind_ne_error (selectItems_ne _ _ _) fun _ _ => by simp

/-- **The check after projection never fails.** -/
theorem admit_ne (values : List (MessageInput G)) (categories : Option (Metadata ContextCategory))
    (exchangeGroups : Option (Metadata (Option G))) (tools : List ModelToolDefinition) :
    admitContext policy values categories exchangeGroups tools ≠ .error exceededAfterProjection := by
  refine bind_ne_error (passing_ne _) fun messages _ => bind_ne_error ?_ fun payloads _ => ?_
  · unfold memoryPayloads
    split <;> simp [exceededAfterProjection]
  refine bind_ne_error (selectContext_ne messages tools payloads) fun s hs => ?_
  -- what is selected fits, so that the check passes
  refine bind_ne_error (raiseIf_ne_error fun hover => ?_) fun _ _ => ?_
  · exact absurd (selectContext_eq_ok.mp hs).after_le (Nat.not_le.mpr hover)
  refine bind_ne_error (passing_ne _) fun usage _ => ?_
  exact bind_ne_error (passing_ne _) fun _ _ => by simp

end Errors

section Main

variable [DecidableEq G]

/-- **Budget soundness.** Every admission that returns accounts for its tokens within the available
input, whatever the estimator, the messages, the tools and the configuration; and no admission
fails with the error after projection. -/
theorem admission_budget_sound (policy : ContextBudgetPolicy) (values : List (MessageInput G))
    (categories : Option (Metadata ContextCategory))
    (exchangeGroups : Option (Metadata (Option G))) (tools : List ModelToolDefinition) :
    (∀ result, admitContext policy values categories exchangeGroups tools = .ok result →
      ∃ messages payloads s, normalizeMessages categories exchangeGroups values = .ok messages ∧
        memoryPayloads messages = .ok payloads ∧
        selectContext policy messages tools payloads = .ok s ∧
        BudgetSound policy messages tools s result) ∧
    admitContext policy values categories exchangeGroups tools ≠ .error exceededAfterProjection := by
  constructor
  · intro result h
    obtain ⟨messages, payloads, s, hmessages, hpayloads, hs, hfits, husage, hmemory, hm, ht, hc⟩ :=
      admit_eq_ok.mp h
    have hcounts := usage_eq_ok husage
    have hestimate := hs.admitted_estimate
    refine ⟨messages, payloads, s, hmessages, hpayloads, selectContext_eq_ok.mpr hs, ?_⟩
    have hafter : result.usage.estimatedInputAfter = s.estimatedInputAfter := by rw [hcounts]; rfl
    have havailable : result.usage.availableInput = s.availableInput := by rw [hcounts]; rfl
    refine ⟨?_, hc, hs.admitted_sublist, ?_, hs.toolEstimates, ?_, ?_, ?_, ?_, hs.mandatory_mem,
      hs.withinPools, fun key hkey => hs.newest_admitted hkey⟩
    · rw [hm]
      exact map_some_filterMap fun a ha => (hestimate a ha).imp fun _ => And.left
    · rw [hm]
      exact mapM_estimate hestimate
    · rw [hafter, Selection.estimatedInputAfter, hs.admitted_eq_selected, hs.requestOverhead,
        toolTokens]
      omega
    · rw [hafter, hcounts, Selection.estimatedInputAfter, ← sum_byCategory]
      rfl
    · rw [havailable]
      exact ⟨s.contextLimit, s.reservedOutput, hs.contextLimit, hs.reservedOutput,
        hs.availableInput⟩
    · rw [hafter, havailable]
      exact hs.after_le
  · exact admit_ne values categories exchangeGroups tools

end Main

/-! ## A sample -/

/-- A policy that counts code points, with a window of `limit` of them. -/
def lengthPolicy (limit : ℕ) (config : ContextBudgetConfig) : ContextBudgetPolicy where
  profiles := [⟨some limit, some 0⟩]
  config := config
  estimator text := text.length
  contextPolicy := none
  reprojectEvidenceView kvs _ := .ok (some kvs)
  reprojectRagEvidencePayload kvs _ := .ok (some kvs)

/-- A message with a text. -/
def textMessage (role : Role) (h : fitsRole role none) (content : String) :
    ModelMessage JsonObject :=
  ⟨role, some (Text.ofString content), none, none, [], h⟩

/-- An assistant message with one tool call. -/
def callMessage (id : String) : ModelMessage JsonObject :=
  { textMessage .assistant fits_assistant "" with
    toolCalls := [⟨Text.ofString "f", [], some (Text.ofString id)⟩] }

/-- The answer to a tool call. -/
def resultMessage (id content : String) (h : fitsRole .tool (some (Text.ofString id))) :
    ModelMessage JsonObject :=
  ⟨.tool, some (Text.ofString content), none, some (Text.ofString id), [], h⟩

/-- A prompt, an old exchange, and an exchange with a tool call. -/
def sampleInput : List (MessageInput ℕ) :=
  [.inline ⟨textMessage .system fits_system "policy", .systemPrompt, none⟩,
    .inline ⟨textMessage .user fits_user "old", .conversation, some 1⟩,
    .inline ⟨callMessage "a", .conversation, some 2⟩,
    .inline ⟨resultMessage "a" "\x7b\"status\":\"SUCCESS\"\x7d" (by decide), .toolResult,
      some 2⟩]

theorem admission_budget_sound_sample :
    ∃ result, admitContext (lengthPolicy 100 { reservedOutputTokens := 10 }) sampleInput none none [] =
        .ok result ∧
      ∃ messages payloads s, normalizeMessages none none sampleInput = .ok messages ∧
        memoryPayloads messages = .ok payloads ∧
        selectContext (lengthPolicy 100 { reservedOutputTokens := 10 }) messages [] payloads =
          .ok s ∧
        BudgetSound (lengthPolicy 100 { reservedOutputTokens := 10 }) messages [] s result := by
  obtain ⟨result, h⟩ : ∃ result,
      admitContext (lengthPolicy 100 { reservedOutputTokens := 10 }) sampleInput none none [] =
        .ok result := exists_of_isSome (by decide +kernel)
  exact ⟨result, h, (admission_budget_sound _ _ _ _ _).1 result h⟩

end AgentHub.Context

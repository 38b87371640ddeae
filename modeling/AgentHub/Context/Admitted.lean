import AgentHub.Context.Pools
import AgentHub.Context.Selection

/-!
# What an admission admits

An admission that returns, step by step, and where the admitted items come from: they are the
selected ones, in the order of the input, each with its message and position.

## Main definitions

* `Selects`: the steps of an admission up to the selection
* `NormalizedMessage.source`: the message of an item with its position
* `exchangeMessages`, `begins`, `NewestConversation`: exchanges of the input
* `AdmittedExchange`: an exchange is admitted whole

## Main results

* `selectContext_eq_ok`, `admit_eq_ok`: an admission that returns
* `Selects.sources`, `Selects.admitted_sublist`: admitted items come from the input, in order
* `Selects.admitted_eq_selected`: every selected item is admitted
* `Selects.index_mem_admitted_congr`: messages of one exchange are admitted together
* `Selects.exists_exchange`: an exchange of the input among the projected items
* `Selects.exchange_admitted`: an exchange is admitted with its key
-/

namespace AgentHub.Context

open Lib Transcript

variable {G : Type} {policy : ContextBudgetPolicy} {messages : List (ContextMessage G)}
  {tools : List ModelToolDefinition} {payloads : List (ℕ × MemoryPayload)} {s : Selection G}

/-! ## Steps -/

/-- What mandatory messages, tools and the request itself count for. -/
def Selection.mandatoryTotal (s : Selection G) : ℕ :=
  ((s.rawItems.filter fun item => item.category.isMandatory).map NormalizedMessage.rawTokens).sum +
    toolTokens s.toolEstimates + s.requestOverhead

/-- The steps of an admission up to the selection. -/
structure Selects [DecidableEq G] (policy : ContextBudgetPolicy)
    (messages : List (ContextMessage G)) (tools : List ModelToolDefinition)
    (payloads : List (ℕ × MemoryPayload)) (s : Selection G) : Prop where
  contextLimit : effectiveContextLimit policy = .ok s.contextLimit
  reservedOutput : effectiveReservedOutput policy = .ok s.reservedOutput
  availableInput : availableInput policy s.contextLimit s.reservedOutput = .ok s.availableInput
  requestOverhead : s.requestOverhead = protocolOverhead policy Counter.requestOverheadTokens
  toolEstimates : tools.mapM (estimateTool policy) = .ok s.toolEstimates
  rawItems : messages.zipIdx.mapM (rawItem policy) = .ok s.rawItems
  mandatory : s.mandatoryTotal ≤ s.availableInput
  projected : projectOptionalItems policy payloads s.rawItems = .ok s.projected
  selected : selectItems s.projected s.mandatoryTotal s.availableInput =
    .ok (s.selected, s.droppedExchangeCount)

section Steps

variable [DecidableEq G]

theorem selectContext_eq_ok :
    selectContext policy messages tools payloads = .ok s ↔
      Selects policy messages tools payloads s := by
  simp only [selectContext, bind_eq_ok, passing_eq_ok, raiseIf_eq_ok, Prod.exists]
  constructor
  · rintro ⟨limit, hlimit, reserved, hreserved, available, havailable, estimates, hestimates, raw,
      hraw, ⟨⟩, hmandatory, projected, hprojected, selected, dropped, hselected, h⟩
    obtain rfl := Except.ok.inj h
    exact ⟨hlimit, hreserved, havailable, rfl, hestimates, hraw, Nat.not_lt.mp hmandatory,
      hprojected, hselected⟩
  · intro h
    have hoverhead := h.requestOverhead
    obtain ⟨limit, reserved, available, overhead, estimates, raw, projected, selected, dropped⟩ := s
    obtain rfl : overhead = _ := hoverhead
    exact ⟨limit, h.contextLimit, reserved, h.reservedOutput, available, h.availableInput,
      estimates, h.toolEstimates, raw, h.rawItems, (), Nat.not_lt.mpr h.mandatory, projected,
      h.projected, selected, dropped, h.selected, rfl⟩

theorem usage_eq_ok {u : UsageCounts} {usage : ContextBudgetUsage}
    (h : ContextBudgetUsage.new u = .ok usage) : usage.toUsageCounts = u := by
  unfold ContextBudgetUsage.new at h
  split at h
  · cases h
  · split_ifs at h
    obtain rfl := Except.ok.inj h
    rfl

/-- **An admission that returns**, step by step. -/
theorem admit_eq_ok {values : List (MessageInput G)}
    {categories : Option (Metadata ContextCategory)}
    {exchangeGroups : Option (Metadata (Option G))} {result : ContextAdmissionResult} :
    admitContext policy values categories exchangeGroups tools = .ok result ↔
      ∃ messages payloads s,
        normalizeMessages categories exchangeGroups values = .ok messages ∧
        memoryPayloads messages = .ok payloads ∧ Selects policy messages tools payloads s ∧
        s.estimatedInputAfter ≤ s.availableInput ∧
        ContextBudgetUsage.new (s.counts policy) = .ok result.usage ∧
        memoryAdmission s.projected (s.selected.map NormalizedMessage.index) payloads =
          .ok result.memoryAdmission ∧
        result.messages = s.admitted.filterMap NormalizedMessage.admittedMessage ∧
        result.toolDefinitions = tools ∧
        result.messageCategories = s.admitted.map NormalizedMessage.category := by
  simp only [admitContext, admitNormalized, bind_eq_ok, passing_eq_ok, raiseIf_eq_ok,
    selectContext_eq_ok]
  constructor
  · rintro ⟨messages, hmessages, payloads, hpayloads, s, hs, ⟨⟩, hfits, usage, husage, memory,
      hmemory, h⟩
    obtain rfl := Except.ok.inj h
    exact ⟨messages, payloads, s, hmessages, hpayloads, hs, Nat.not_lt.mp hfits, husage, hmemory,
      rfl, rfl, rfl⟩
  · rintro ⟨messages, payloads, s, hmessages, hpayloads, hs, hfits, husage, hmemory, hm, ht, hc⟩
    obtain ⟨m, t, usage, c, memory⟩ := result
    obtain rfl : m = _ := hm
    obtain rfl : t = _ := ht
    obtain rfl : c = _ := hc
    exact ⟨messages, hmessages, payloads, hpayloads, s, hs, (), Nat.not_lt.mpr hfits, usage,
      husage, memory, hmemory, rfl⟩

end Steps

/-- Messages with their metadata inline are taken as they are. -/
theorem resolveMessages_inline [DecidableEq G] (messages : List (ContextMessage G)) :
    resolveMessages none none (messages.map .inline) = .ok messages := by
  have hresolve (i : ℕ) (m : ContextMessage G) :
      resolveMessage none none i (.inline m) = .ok m := by simp [resolveMessage]
  simp only [resolveMessages, Option.not_mem_none, false_and, exists_false, raiseIf, if_false,
    ok_bind]
  simpa using mapM_zipIdx_eq_ok (f := fun v i => resolveMessage none none i v)
    (g := fun m => m) (fun m _ i => hresolve i m) 0

/-! ## Sources -/

/-- The message of an item with its position in the input. -/
def NormalizedMessage.source (m : NormalizedMessage G) : ContextMessage G × ℕ := (m.item, m.index)

theorem rawItem_eq_ok {p : ContextMessage G × ℕ} {r : NormalizedMessage G} :
    rawItem policy p = .ok r ↔ ∃ n, estimateMessage policy p.1.message = .ok n ∧
      r = { item := p.1, index := p.2, rawTokens := n } := by
  rw [rawItem, bind_eq_ok]
  refine exists_congr fun n => and_congr_right fun _ => ?_
  rw [Except.ok.injEq, eq_comm]

section Raw

variable {raw : List (NormalizedMessage G)}

theorem rawItems_sources (h : messages.zipIdx.mapM (rawItem policy) = .ok raw) :
    raw.map NormalizedMessage.source = messages.zipIdx := by
  rw [← List.map_id messages.zipIdx]
  refine (Pairing.map_eq_map (fun p r hr => ?_) (mapM_eq_ok_iff.mp h)).symm
  obtain ⟨n, -, rfl⟩ := rawItem_eq_ok.mp hr
  rfl

theorem rawItems_estimate (h : messages.zipIdx.mapM (rawItem policy) = .ok raw) :
    ∀ r ∈ raw, estimateMessage policy r.item.message = .ok r.rawTokens := by
  intro r hr
  obtain ⟨p, -, hp⟩ := Pairing.exists_left (mapM_eq_ok_iff.mp h) hr
  obtain ⟨n, hn, rfl⟩ := rawItem_eq_ok.mp hp
  exact hn

/-- The pools keep the messages and their positions. -/
theorem placed_sources {out : List (NormalizedMessage G)}
    (h : List.Forall₂ (Placed policy) raw out) :
    out.map NormalizedMessage.source = raw.map NormalizedMessage.source :=
  (Pairing.map_eq_map (fun _ _ hrp => Prod.ext hrp.item.symm hrp.index.symm) h).symm

end Raw

namespace Selects

variable {items : List (NormalizedMessage G)} {a : NormalizedMessage G}

theorem pairwise_zipIdx (messages : List (ContextMessage G)) :
    messages.zipIdx.Pairwise fun a b => a.2 < b.2 := by
  refine List.pairwise_map.mp ?_
  rw [List.zipIdx_map_snd]
  exact List.pairwise_lt_range'

/-- Items whose sources are the input stand at distinct positions, in order. -/
theorem pairwise_of_sources (h : items.map NormalizedMessage.source = messages.zipIdx) :
    items.Pairwise fun a b => a.index < b.index := by
  have hpairwise := pairwise_zipIdx messages
  rw [← h, List.pairwise_map] at hpairwise
  exact hpairwise

theorem nodup_index (h : items.Pairwise fun a b => a.index < b.index) :
    (items.map NormalizedMessage.index).Nodup :=
  List.pairwise_map.mpr (h.imp ne_of_lt)

theorem not_projectable_of_mandatory {c : ContextCategory} (h : c.isMandatory) :
    c.isProjectable = false := by
  cases c <;> simp_all [ContextCategory.isMandatory, ContextCategory.isProjectable]

variable [DecidableEq G] (h : Selects policy messages tools payloads s)

include h

theorem raw_sources : s.rawItems.map NormalizedMessage.source = messages.zipIdx :=
  rawItems_sources h.rawItems

theorem raw_estimate : ∀ r ∈ s.rawItems, estimateMessage policy r.item.message = .ok r.rawTokens :=
  rawItems_estimate h.rawItems

theorem placed : List.Forall₂ (Placed policy) s.rawItems s.projected :=
  projectOptionalItems_placed (nodup_index (pairwise_of_sources h.raw_sources)) h.raw_estimate
    h.projected

/-- **Projected items are the messages of the input**, in order. -/
theorem sources : s.projected.map NormalizedMessage.source = messages.zipIdx :=
  (placed_sources h.placed).trans h.raw_sources

theorem pairwise_projected : s.projected.Pairwise fun a b => a.index < b.index :=
  pairwise_of_sources h.sources

theorem mandatory_admitted :
    ∀ p ∈ s.projected, p.category.isProjectable = false →
      p.admittedMessage = some p.item.message ∧ p.admittedTokens = p.rawTokens := by
  intro p hp hcategory
  obtain ⟨r, -, hrp⟩ := Pairing.exists_left h.placed hp
  rw [hrp.category] at hcategory
  rw [hrp.item, hrp.rawTokens]
  exact hrp.whole hcategory

theorem selected_sublist : s.selected.Sublist s.projected := by
  obtain ⟨-, hselected, -⟩ := selectItems_eq_ok.mp h.selected
  rw [hselected]
  exact List.filter_sublist

/-- **Every selected item is admitted**, and they stand in order. -/
theorem admitted_eq_selected : s.admitted = s.selected := by
  have hsorted : s.selected.Pairwise fun a b => a.index ≤ b.index :=
    (h.pairwise_projected.sublist h.selected_sublist).imp le_of_lt
  rw [Selection.admitted, hsorted.insertionSort_eq, List.filter_eq_self]
  intro a ha
  refine admitted_of_selected h.pairwise_projected (fun b hb hmandatory => ?_) h.selected ha
  rw [(h.mandatory_admitted b hb (not_projectable_of_mandatory hmandatory)).1]
  rfl

/-- **Admitted items come from the input**, in order. -/
theorem admitted_sublist : (s.admitted.map NormalizedMessage.source).Sublist messages.zipIdx := by
  rw [h.admitted_eq_selected, ← h.sources]
  exact h.selected_sublist.map _

theorem mem_admitted_iff :
    a ∈ s.admitted ↔ a ∈ s.projected ∧
      (a.category.isMandatory ∨
        a.group ∈ selectedKeys (s.availableInput - s.mandatoryTotal) s.projected) := by
  obtain ⟨-, hselected, -⟩ := selectItems_eq_ok.mp h.selected
  rw [h.admitted_eq_selected, hselected, List.mem_filter]
  simp

/-- An item is admitted with its position. -/
theorem index_mem_admitted (ha : a ∈ s.projected) :
    a.index ∈ s.admitted.map NormalizedMessage.index ↔ a ∈ s.admitted := by
  constructor
  · intro hmem
    obtain ⟨b, hb, hindex⟩ := List.mem_map.mp hmem
    have hb' := (h.mem_admitted_iff.mp hb).1
    rwa [← List.inj_on_of_nodup_map (nodup_index h.pairwise_projected) hb' ha hindex]
  · exact List.mem_map_of_mem

/-- **Messages of one exchange are admitted together**, by their positions. -/
theorem index_mem_admitted_congr {i j : ℕ} {a b : ContextMessage G} {key : G}
    (ha : messages[i]? = some a) (hb : messages[j]? = some b)
    (hma : a.category.isMandatory = false) (hmb : b.category.isMandatory = false)
    (hga : a.exchangeGroup = some key) (hgb : b.exchangeGroup = some key) :
    i ∈ s.admitted.map NormalizedMessage.index ↔ j ∈ s.admitted.map NormalizedMessage.index := by
  have hmem {i : ℕ} {a : ContextMessage G} (ha : messages[i]? = some a) :
      ∃ p ∈ s.projected, p.item = a ∧ p.index = i := by
    have hsource : (a, i) ∈ messages.zipIdx := List.mk_mem_zipIdx_iff_getElem?.mpr ha
    rw [← h.sources] at hsource
    obtain ⟨p, hp, hsource⟩ := List.mem_map.mp hsource
    exact ⟨p, hp, (Prod.mk.inj hsource).1, (Prod.mk.inj hsource).2⟩
  obtain ⟨p, hp, rfl, rfl⟩ := hmem ha
  obtain ⟨q, hq, rfl, rfl⟩ := hmem hb
  have hgroup : p.group = q.group := by
    simp only [NormalizedMessage.group, ContextMessage.groupAt, hga, hgb]
  rw [h.index_mem_admitted hp, h.index_mem_admitted hq, h.mem_admitted_iff, h.mem_admitted_iff,
    hgroup]
  simp [hp, hq, NormalizedMessage.category, hma, hmb]

end Selects

/-! ## Exchanges of the input -/

section Exchanges

variable [DecidableEq G]

/-- The messages of an exchange with their positions. Mandatory messages belong to none. -/
def exchangeMessages (messages : List (ContextMessage G)) (key : GroupKey G) :
    List (ContextMessage G × ℕ) :=
  messages.zipIdx.filter fun p => !p.1.category.isMandatory && p.1.groupAt p.2 = key

/-- The exchange has a message of the conversation. -/
def IsConversationKey (messages : List (ContextMessage G)) (key : GroupKey G) : Prop :=
  ∃ p ∈ exchangeMessages messages key, p.1.category = .conversation

/-- The position of the first message of an exchange. -/
def begins (messages : List (ContextMessage G)) (key : GroupKey G) : ℕ :=
  ((exchangeMessages messages key).map Prod.snd).headD 0

/-- Every message of the exchange is admitted. -/
def AdmittedExchange (messages : List (ContextMessage G)) (s : Selection G) (key : GroupKey G) :
    Prop :=
  ∀ p ∈ exchangeMessages messages key, p.2 ∈ s.admitted.map NormalizedMessage.index

instance (messages : List (ContextMessage G)) (s : Selection G) (key : GroupKey G) :
    Decidable (AdmittedExchange messages s key) :=
  inferInstanceAs (Decidable (∀ p ∈ exchangeMessages messages key, _))

instance (messages : List (ContextMessage G)) (key : GroupKey G) :
    Decidable (IsConversationKey messages key) :=
  inferInstanceAs (Decidable (∃ p ∈ exchangeMessages messages key, _))

/-- The conversation exchange that begins last. -/
structure NewestConversation (messages : List (ContextMessage G)) (key : GroupKey G) : Prop where
  conversation : IsConversationKey messages key
  newest : ∀ other, IsConversationKey messages other → begins messages other ≤ begins messages key

variable {g : Exchange G} (h : Selects policy messages tools payloads s)

include h

/-- The messages of an exchange of projected items. -/
theorem Selects.members_source (hg : g ∈ exchanges s.projected) :
    g.members.map NormalizedMessage.source = exchangeMessages messages g.key := by
  rw [members_groupsOf hg, exchangeMessages, ← h.sources, List.filter_map, List.filter_filter]
  congr 1
  exact List.filter_congr fun a _ => Bool.and_comm _ _

theorem Selects.firstIndex_eq (hg : g ∈ exchanges s.projected) :
    firstIndex g = begins messages g.key := by
  rw [begins, ← h.members_source hg]
  rfl

theorem Selects.isConversation_iff (hg : g ∈ exchanges s.projected) :
    isConversation g ↔ IsConversationKey messages g.key := by
  rw [IsConversationKey, ← h.members_source hg, isConversation, List.any_eq_true]
  constructor
  · rintro ⟨a, ha, hcategory⟩
    exact ⟨a.source, List.mem_map_of_mem ha, of_decide_eq_true hcategory⟩
  · rintro ⟨_, hp, hcategory⟩
    obtain ⟨a, ha, rfl⟩ := List.mem_map.mp hp
    exact ⟨a, ha, decide_eq_true hcategory⟩

/-- **An exchange of the input** is one of the projected items. -/
theorem Selects.exists_exchange {key : GroupKey G} (hkey : exchangeMessages messages key ≠ []) :
    ∃ g ∈ exchanges s.projected, g.key = key := by
  obtain ⟨p, hp⟩ := List.exists_mem_of_ne_nil _ hkey
  obtain ⟨hmem, hp⟩ := List.mem_filter.mp hp
  rw [← h.sources] at hmem
  obtain ⟨a, ha, rfl⟩ := List.mem_map.mp hmem
  obtain ⟨hoptional, hgroup⟩ := Bool.and_eq_true_iff.mp hp
  obtain ⟨g, hg, hgkey, -⟩ : ∃ g ∈ exchanges s.projected, g.key = a.group ∧ a ∈ g.members :=
    exists_group (List.mem_filter.mpr ⟨ha, hoptional⟩)
  exact ⟨g, hg, hgkey.trans (of_decide_eq_true hgroup)⟩

/-- **An exchange is admitted whole** where its key is selected. -/
theorem Selects.exchange_admitted (hg : g ∈ exchanges s.projected) :
    AdmittedExchange messages s g.key ↔
      g.key ∈ selectedKeys (s.availableInput - s.mandatoryTotal) s.projected := by
  have hmembers : ∀ a ∈ g.members, a.index ∈ s.admitted.map NormalizedMessage.index ↔
      g.key ∈ selectedKeys (s.availableInput - s.mandatoryTotal) s.projected := by
    intro a ha
    obtain ⟨hmem, hgroup⟩ := mem_of_mem_members hg ha
    obtain ⟨hprojected, hoptional⟩ := List.mem_filter.mp hmem
    rw [h.index_mem_admitted hprojected, h.mem_admitted_iff, hgroup]
    simp only [Bool.not_eq_true'] at hoptional
    simp [hprojected, hoptional]
  have hfirst : g.first ∈ g.members := List.mem_cons_self
  rw [AdmittedExchange, ← h.members_source hg]
  constructor
  · intro hall
    exact (hmembers g.first hfirst).mp (hall g.first.source (List.mem_map_of_mem hfirst))
  · intro hkey p hp
    obtain ⟨a, ha, rfl⟩ := List.mem_map.mp hp
    exact (hmembers a ha).mpr hkey

end Exchanges

end AgentHub.Context

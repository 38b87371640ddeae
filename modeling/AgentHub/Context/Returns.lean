import AgentHub.Context.Attribution

/-!
# Admissions that return

An admission returns exactly where the groups of tools are accepted, the memory payloads are valid,
items can be selected, and the window is a possible one. Its messages are those of the selected
items.

## Main definitions

* `MadeOf`: the result of an admission, with the items it is made of

## Main results

* `validateAtomicToolGroups_eq_ok`: when the groups of tools are accepted
* `exists_admit_iff`: when an admission returns
-/

namespace AgentHub.Context

open Lib Transcript

variable {G : Type} [DecidableEq G] {policy : ContextBudgetPolicy}

/-! ## Tools -/

variable {messages : List (ContextMessage G)}

omit [DecidableEq G] in
theorem fst_mem_of_zipIdx {p : ContextMessage G × ℕ} (hp : p ∈ messages.zipIdx) :
    p.1 ∈ messages := by
  have hmem := List.mem_map_of_mem (f := Prod.fst) hp
  rwa [List.zipIdx_map_fst] at hmem

/-- **Groups with a tool observation**: each observation shares its exchange with a call. -/
theorem validateAtomicToolGroups_eq_ok :
    validateAtomicToolGroups messages = .ok () ↔
      ∀ m ∈ messages, m.message.role = .tool → ∃ call ∈ messages, isToolCall call.message ∧
        ∃ group, m.exchangeGroup = some group ∧ call.exchangeGroup = some group := by
  rw [validateAtomicToolGroups, raiseIf_eq_ok]
  constructor
  · intro h m hm hrole
    rw [← List.zipIdx_map_fst (l := messages) (i := 0)] at hm
    obtain ⟨⟨m, i⟩, hp, rfl⟩ := List.mem_map.mp hm
    obtain ⟨g, hg, hkey, hmem⟩ : ∃ g ∈ groupsOf (fun p : ContextMessage G × ℕ => p.1.groupAt p.2)
        messages.zipIdx, g.key = m.groupAt i ∧ (m, i) ∈ g.members := exists_group hp
    obtain ⟨⟨call, j⟩, hcall, hiscall⟩ : ∃ q ∈ g.members, isToolCall q.1.message := by
      by_contra hnone
      refine h ⟨g, hg, List.any_eq_true.mpr ⟨_, hmem, decide_eq_true hrole⟩, fun hany => hnone ?_⟩
      exact List.any_eq_true.mp hany
    obtain ⟨hq, hkey'⟩ := mem_of_mem_members hg hcall
    replace hkey : m.groupAt i = call.groupAt j := hkey.symm.trans hkey'.symm
    refine ⟨call, fst_mem_of_zipIdx hq, hiscall, ?_⟩
    unfold ContextMessage.groupAt at hkey
    cases hgroup : m.exchangeGroup <;> cases hgroup' : call.exchangeGroup <;>
      rw [hgroup, hgroup'] at hkey
    · -- alone, an observation is no call
      have hsame : (m, i) = (call, j) := List.inj_on_of_nodup_map
        (List.pairwise_map.mpr ((Selects.pairwise_zipIdx messages).imp ne_of_lt)) hp hq
        (GroupKey.ungrouped.inj hkey)
      obtain ⟨rfl, -⟩ := Prod.mk.inj hsame
      simp [isToolCall, show m.message.role = .tool from hrole] at hiscall
    · cases hkey
    · cases hkey
    · exact ⟨_, rfl, congrArg some (GroupKey.exchange.inj hkey).symm⟩
  · rintro h ⟨g, hg, hany, hnone⟩
    obtain ⟨⟨m, i⟩, hmem, hrole⟩ := List.any_eq_true.mp hany
    obtain ⟨hp, hkey⟩ := mem_of_mem_members hg hmem
    obtain ⟨call, hcall, hiscall, group, hgroup, hgroup'⟩ :=
      h m (fst_mem_of_zipIdx hp) (of_decide_eq_true hrole)
    rw [← List.zipIdx_map_fst (l := messages) (i := 0)] at hcall
    obtain ⟨⟨call, j⟩, hq, rfl⟩ := List.mem_map.mp hcall
    replace hgroup' : call.exchangeGroup = some group := hgroup'
    refine hnone (List.any_eq_true.mpr ⟨(call, j), ?_, hiscall⟩)
    rw [members_groupsOf hg, List.mem_filter]
    refine ⟨hq, decide_eq_true (.trans ?_ hkey)⟩
    simp only [ContextMessage.groupAt, hgroup, hgroup']

/-! ## Whole admissions -/

section Admit

variable {messages : List (ContextMessage G)} {tools : List ModelToolDefinition}
  {payloads : List (ℕ × MemoryPayload)} {s : Selection G} {values : List (MessageInput G)}
  {categories : Option (Metadata ContextCategory)}
  {exchangeGroups : Option (Metadata (Option G))}

theorem Selects.exists_usage (h : Selects policy messages tools payloads s)
    (hwindow : (s.counts policy).windowFault = none) :
    ∃ usage, ContextBudgetUsage.new (s.counts policy) = .ok usage := by
  have hfits : (s.counts policy).estimatedInputAfter ≤ (s.counts policy).availableInput :=
    h.after_le
  unfold ContextBudgetUsage.new
  split
  · next hfault => cases hwindow.symm.trans hfault
  · rw [dif_pos hfits]
    exact ⟨_, rfl⟩

/-- The account of memories is never refused, with memory or without. -/
theorem Selects.exists_account (h : Selects policy messages tools payloads s)
    (hpayloads : memoryPayloads messages = .ok payloads) :
    ∃ account, memoryAdmission s.projected (s.selected.map NormalizedMessage.index) payloads =
      .ok account := by
  by_cases hnone : ofCategory s.projected .memory = []
  · refine ⟨none, ?_⟩
    rw [memoryAdmission, ← ofCategory, hnone]
    rfl
  · obtain ⟨account, haccount, -⟩ := h.exists_memoryAdmission hpayloads _ hnone
    exact ⟨some account, haccount⟩

/-- **When an admission returns**: the groups of tools are accepted, the payloads are valid, the
items are selected, and the window is a possible one. -/
theorem exists_admit_iff (hmessages : resolveMessages categories exchangeGroups values =
    .ok messages) :
    (∃ result, admitContext policy values categories exchangeGroups tools = .ok result) ↔
      validateAtomicToolGroups messages = .ok () ∧
      ∃ payloads s, memoryPayloads messages = .ok payloads ∧
        Selects policy messages tools payloads s ∧ (s.counts policy).windowFault = none := by
  simp only [admit_eq_ok, normalizeMessages, bind_eq_ok, hmessages, Except.ok.injEq,
    exists_eq_left']
  constructor
  · rintro ⟨result, _, payloads, s, ⟨⟨⟩, hgroups, rfl⟩, hpayloads, hs, -, husage, -⟩
    exact ⟨hgroups, payloads, s, hpayloads, hs, usage_eq_ok husage ▸ result.usage.window⟩
  · rintro ⟨hgroups, payloads, s, hpayloads, hs, hwindow⟩
    obtain ⟨usage, husage⟩ := hs.exists_usage hwindow
    obtain ⟨account, haccount⟩ := hs.exists_account hpayloads
    exact ⟨⟨_, tools, usage, _, account⟩, messages, payloads, s, ⟨(), hgroups, rfl⟩, hpayloads, hs,
      hs.after_le, husage, haccount, rfl, rfl, rfl⟩

/-- The result of an admission is made of the selected items. -/
def MadeOf (policy : ContextBudgetPolicy) (messages : List (ContextMessage G))
    (tools : List ModelToolDefinition) (s : Selection G) (result : ContextAdmissionResult) : Prop :=
  ∃ payloads, memoryPayloads messages = .ok payloads ∧
    selectContext policy messages tools payloads = .ok s ∧
    result.messages.map some = s.admitted.map NormalizedMessage.admittedMessage

theorem exists_madeOf {result : ContextAdmissionResult}
    (hmessages : resolveMessages categories exchangeGroups values = .ok messages)
    (h : admitContext policy values categories exchangeGroups tools = .ok result) :
    ∃ s, MadeOf policy messages tools s result := by
  obtain ⟨messages', payloads, s, hnormalized, hpayloads, hs, -, -, -, hresult, -⟩ :=
    admit_eq_ok.mp h
  obtain ⟨_, hresolved, hnormalized⟩ := bind_eq_ok.mp hnormalized
  obtain ⟨⟨⟩, -, hnormalized⟩ := bind_eq_ok.mp hnormalized
  obtain rfl := Except.ok.inj (hmessages.symm.trans hresolved)
  obtain rfl := Except.ok.inj hnormalized
  refine ⟨s, payloads, hpayloads, selectContext_eq_ok.mpr hs, ?_⟩
  rw [hresult]
  exact map_some_filterMap fun a ha => (hs.admitted_estimate a ha).imp fun _ => And.left

end Admit

end AgentHub.Context
